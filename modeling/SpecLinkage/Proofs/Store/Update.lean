import SpecLinkage.Proofs.Store.Program

/-! # The course of an update

An update of a program is one of four things: the lock is not taken, the program fails, it
goes well without a change, or its changes are written.  Here the cases are told apart by the
plan of the program and by one attempt to write.

* `Store.validTags` are the tags that a file holds; `Store.load_records`: loading records
  them in order.
* `Workspace.reopened` is the workspace in which a program starts.
* `Workspace.transact_run` gives the cases.
* `Workspace.update_of_inMemory`: in memory neither the lock nor the write fails. -/

namespace SpecLinkage

/-! ## Loading -/

/-- The tags of the well-formed records of a store file; none if it is no document. -/
def Store.validTags (t : FileTree) (path : String) : List Tag :=
  match t.readText path with
  | .error _ => []
  | .ok text => ((StoreDocument.ofText? text).map StoreDocument.tags).getD []

theorem Store.load_records (t : FileTree) (path : String) :
    (Store.load t path).1 = .ofTags (Store.validTags t path) := by
  unfold Store.load Store.validTags
  cases t.readText path with
  | error e => cases e <;> rfl
  | ok text =>
    simp only
    cases StoreDocument.ofText? text <;> rfl

theorem Store.reload_indexed {s : Store} (h : s.records.Indexed) (t : FileTree) :
    (s.reload t).records.Indexed := by
  unfold Store.reload
  cases s.path with
  | none => exact h
  | some path =>
    show (Store.load t path).1.Indexed
    rw [Store.load_records]
    exact Records.indexed_ofTags _

theorem Store.reload_path (s : Store) (t : FileTree) : (s.reload t).path = s.path := by
  unfold Store.reload
  cases hp : s.path <;> simp [hp]

namespace Workspace

/-- The workspace in which a program starts: the store is as the file has it, and outside of
any update. -/
def reopened (w : Workspace) : Workspace :=
  { w with store := { w.store.reload w.disk.tree with deferred := false, dirty := false } }

/-- The workspace after an update that recorded `r` and left the files as in `t`. -/
def settled (w : Workspace) (r : Records) (t : FileTree) : Workspace :=
  { w.reopened with
    store := { w.reopened.store with records := r }
    disk := { w.disk with tree := t } }

variable {α : Type}

/-- An update ends by writing what was noted; if it cannot be written, the given tags come
back. -/
theorem settle_of_dirty (snapshot : List Tag) (a : α) {w : Workspace} (h : w.store.dirty = true) :
    settle snapshot (.ok a) w =
      let s := { w.store with deferred := false, dirty := false }
      match w.store.write w.disk.tree with
      | (.ok (), t) => (.ok a, { w with store := s, disk := { w.disk with tree := t } })
      | (.error e, t) =>
        (.error e, { w with store := s.restore snapshot, disk := { w.disk with tree := t } }) := by
  have hon : onStore Store.persist { w with store := { w.store with deferred := false } } =
      ((w.store.write w.disk.tree).1, { w with
        store := { w.store with deferred := false }
        disk := { w.disk with tree := (w.store.write w.disk.tree).2 } }) := by
    rw [onStore, Store.persist_direct _ rfl]
    rfl
  have hflush : flush (.ok a) w =
      match w.store.write w.disk.tree with
      | (.ok (), t) => (.ok a, { w with
        store := { w.store with deferred := false }, disk := { w.disk with tree := t } })
      | (.error e, t) => (.error e, { w with
        store := { w.store with deferred := false }, disk := { w.disk with tree := t } }) := by
    unfold flush
    simp only
    rw [if_pos h, hon]
    rcases w.store.write w.disk.tree with ⟨e | _, t⟩ <;> rfl
  unfold settle
  rw [hflush]
  rcases w.store.write w.disk.tree with ⟨e | _, t⟩ <;> rfl

theorem settle_of_clean (snapshot : List Tag) (a : α) {w : Workspace} (h : w.store.dirty = false) :
    settle snapshot (.ok a) w =
      (.ok a, { w with store := { w.store with deferred := false, dirty := false } }) := by
  simp only [settle, flush, h]
  rfl

/-- The workspace in which a program has run under the lock, and its result: it fails and
leaves what was loaded, or it goes well without a change, or its records are written at once; if
they cannot be written, what was loaded stays. -/
def concluded (p : StoreProgram α) (w : Workspace) : Except StoreError α × Workspace :=
  match p.plan w.reopened.store.records with
  | (.error e, _, _) => (.error e, w.reopened)
  | (.ok a, r, 0) => (.ok a, w.settled r w.disk.tree)
  | (.ok a, r, _ + 1) =>
    match Store.write { w.reopened.store with records := r } w.disk.tree with
    | (.ok (), t) => (.ok a, w.settled r t)
    | (.error e, t) => (.error e, w.settled w.reopened.store.records t)

theorem reopened_indexed {w : Workspace} (h : w.store.records.Indexed) :
    w.reopened.store.records.Indexed :=
  Store.reload_indexed h w.disk.tree

/-- Under the lock, a program goes as planned. -/
theorem transact_run (p : StoreProgram α) (w : Workspace) (h : w.store.records.Indexed) :
    transact (fun w => (((), (p.run w).1), (p.run w).2)) w =
      (((), (w.concluded p).1), (w.concluded p).2) := by
  have hrestore : Records.ofTags w.reload.store.tags = w.reopened.store.records :=
    (reopened_indexed h).ofTags_tags
  have hrun := p.run_deferred w.reload.deferWrites rfl
  have hstart : w.reload.deferWrites.store.records = w.reopened.store.records := rfl
  rw [hstart] at hrun
  simp only [transact, hrun, concluded]
  rcases p.plan w.reopened.store.records with ⟨e | a, r, made⟩
  · simp only [settle, flush, Store.restore, hrestore]
    rfl
  · cases made with
    | zero =>
      rw [settle_of_clean _ _ rfl]
      rfl
    | succ n =>
      rw [settle_of_dirty _ _ (by simp)]
      simp only [Store.restore, hrestore]
      rfl

/-- Whether a program has run under the lock or not, the store keeps its path, its indexes are in
step, and it is outside of any update. -/
theorem concluded_store (p : StoreProgram α) (w : Workspace) (h : w.store.records.Indexed) :
    (w.concluded p).2.store.path = w.store.path ∧
      (w.concluded p).2.store.records.Indexed ∧
      (w.concluded p).2.store.deferred = false ∧ (w.concluded p).2.store.dirty = false := by
  have hp : w.reopened.store.path = w.store.path := Store.reload_path w.store w.disk.tree
  have hi := reopened_indexed h
  have hplan := (p.plan_eq_onMap hi).1
  unfold concluded
  rcases hr : p.plan w.reopened.store.records with ⟨e | a, r, _ | n⟩
  · exact ⟨hp, hi, rfl, rfl⟩
  · exact ⟨hp, hi, rfl, rfl⟩
  · rw [hr] at hplan
    exact ⟨hp, hplan, rfl, rfl⟩
  · rw [hr] at hplan
    simp only
    rcases Store.write { w.reopened.store with records := r } w.disk.tree with ⟨e | _, t⟩
    · exact ⟨hp, hi, rfl, rfl⟩
    · exact ⟨hp, hplan, rfl, rfl⟩

/-- The records after a program under the lock: those that were loaded if it has failed, and those
of the plan otherwise. -/
theorem concluded_records (p : StoreProgram α) (w : Workspace) :
    match (w.concluded p).1 with
    | .error _ => (w.concluded p).2.store.records = w.reopened.store.records
    | .ok a => (p.plan w.reopened.store.records).1 = .ok a ∧
      (w.concluded p).2.store.records = (p.plan w.reopened.store.records).2.1 := by
  unfold concluded
  rcases hr : p.plan w.reopened.store.records with ⟨e | a, r, _ | n⟩
  · rfl
  · rfl
  · exact ⟨rfl, rfl⟩
  · simp only
    rcases Store.write { w.reopened.store with records := r } w.disk.tree with ⟨e | _, t⟩
    · rfl
    · exact ⟨rfl, rfl⟩

/-- Neither the locks nor what concerns them on the disk are touched under the lock. -/
theorem concluded_locks (p : StoreProgram α) (w : Workspace) :
    (w.concluded p).2.locks = w.locks ∧ (w.concluded p).2.me = w.me ∧
      (w.concluded p).2.disk = { w.disk with tree := (w.concluded p).2.disk.tree } := by
  unfold concluded
  rcases p.plan w.reopened.store.records with ⟨e | a, r, _ | n⟩
  · exact ⟨rfl, rfl, rfl⟩
  · exact ⟨rfl, rfl, rfl⟩
  · exact ⟨rfl, rfl, rfl⟩
  · simp only
    rcases Store.write { w.reopened.store with records := r } w.disk.tree with ⟨e | _, t⟩ <;>
      exact ⟨rfl, rfl, rfl⟩

/-! ## Taking and giving back the lock -/

theorem acquire_store (name : String) (timeout : Nat) (w : Workspace) :
    (w.acquire name timeout).2.store = w.store := by
  unfold acquire keepLock
  split <;> rfl

theorem release_store (name : String) (w : Workspace) : (w.release name).2.store = w.store := by
  unfold release keepLock
  split <;> rfl

theorem lock_insert (w : Workspace) (name : String) (l : Lock) (d : Disk) :
    lock { w with disk := d, locks := w.locks.insert name l } name = l := by
  rw [lock, SortedMap.get?_insert_self]
  rfl

/-- A lock that was taken is held. -/
theorem isHeld_of_acquire {name : String} {timeout : Nat} {w w₁ : Workspace}
    (h : w.acquire name timeout = (.ok (), w₁)) : (w₁.lock name).isHeld = true := by
  unfold acquire keepLock at h
  split at h
  · cases h
  · next l d hl =>
    cases h
    rw [lock_insert]
    rcases hw : w.lock name with held | ⟨f, held⟩ <;> rw [hw] at hl
    · cases held
      · cases hl
        rfl
      · cases hl
    · simp only [Lock.acquire] at hl
      split at hl <;> cases hl
      rfl

/-- A lock that is held can be given back, and is not held then. -/
theorem release_of_isHeld {name : String} {w : Workspace} (h : (w.lock name).isHeld = true) :
    (w.release name).1 = .ok () ∧ ((w.release name).2.lock name).isHeld = false := by
  unfold release keepLock
  rcases hw : w.lock name with held | ⟨f, held⟩ <;> rw [hw] at h
  · obtain rfl : held = true := h
    exact ⟨rfl, by rw [Lock.release, lock_insert]; rfl⟩
  · obtain ⟨o, rfl⟩ := Option.isSome_iff_exists.1 h
    exact ⟨rfl, by rw [Lock.release, lock_insert]; rfl⟩

/-- An update that has taken the lock is what happens under it, and giving the lock back does not
fail. -/
theorem update_run {name : String} {timeout : Nat} {w w₁ : Workspace} (p : StoreProgram α)
    (h : w.store.records.Indexed) (hacq : w.acquire name timeout = (.ok (), w₁)) :
    w.update name timeout p.run =
      ((w₁.concluded p).1.mapError .store, ((w₁.concluded p).2.release name).2) := by
  have hs : w₁.store = w.store := by
    rw [← acquire_store name timeout w, hacq]
  have hl : (w₁.concluded p).2.lock name = w₁.lock name := by
    rw [lock, (concluded_locks p w₁).1, lock]
  have hrel := (release_of_isHeld (by rw [hl]; exact isHeld_of_acquire hacq)).1
  simp only [update, guarded, hacq, transact_run p w₁ (hs ▸ h), hrel]
  rcases (w₁.concluded p).1 with e | a <;> rfl

/-- An update with one change that has taken the lock goes well if the changed records can be
written. -/
theorem update_change_ok {name : String} {timeout : Nat} {w w₁ : Workspace} (c : StoreChange)
    (h : w.store.records.Indexed) (hacq : w.acquire name timeout = (.ok (), w₁))
    (hwrite : c.isMade w₁.reopened.store.records = true →
      (Store.write { w₁.reopened.store with records := (c.apply w₁.reopened.store.records).2 }
        w₁.disk.tree).1 = .ok ()) :
    (w.update name timeout (StoreProgram.run (.change c .finish))).1 =
      .ok (c.apply w₁.reopened.store.records).1 := by
  have hplan : StoreProgram.plan (.change c .finish) w₁.reopened.store.records =
      (.ok (c.apply w₁.reopened.store.records).1, (c.apply w₁.reopened.store.records).2,
        0 + if c.isMade w₁.reopened.store.records then 1 else 0) := rfl
  rw [update_run _ h hacq, concluded, hplan]
  cases hc : c.isMade w₁.reopened.store.records with
  | false => rfl
  | true =>
    have hok := hwrite hc
    simp only [if_pos]
    rcases hw : Store.write
      { w₁.reopened.store with records := (c.apply w₁.reopened.store.records).2 } w₁.disk.tree
      with ⟨e | _, t⟩
    · rw [hw] at hok
      cases hok
    · rfl

/-! ## In memory -/

theorem acquire_of_inMemory (name : String) (timeout : Nat) {w : Workspace}
    (hlock : w.lock name = .memory false) :
    w.acquire name timeout =
      (.ok (), { w with disk := w.disk, locks := w.locks.insert name (.memory true) }) := by
  rw [acquire, hlock]
  rfl

theorem concluded_of_inMemory (p : StoreProgram α) {w : Workspace} (h : w.store.records.Indexed)
    (hpath : w.store.path = none) :
    (w.concluded p).1 = (p.onMap w.store.records.entries).1 := by
  have hstore : w.reopened.store.records = w.store.records := by
    rw [reopened, Store.reload, hpath]
  have hwrite : ∀ r, Store.write { w.reopened.store with records := r } w.disk.tree =
      (.ok (), w.disk.tree) := by
    intro r
    have hnone : w.reopened.store.path = none := (Store.reload_path _ _).trans hpath
    rw [Store.write, hnone]
  have hplan := (p.plan_eq_onMap h).2.2
  rw [← hplan, concluded, hstore]
  rcases p.plan w.store.records with ⟨e | a, r, _ | n⟩
  · rfl
  · rfl
  · rfl
  · simp only [hwrite]

/-- In memory an update fails only if its program does, and leaves the store in memory and the lock
free. -/
theorem update_of_inMemory (p : StoreProgram α) (name : String) (timeout : Nat) {w : Workspace}
    (h : w.store.records.Indexed) (hpath : w.store.path = none)
    (hlock : w.lock name = .memory false) :
    (w.update name timeout p.run).1 = (p.onMap w.store.records.entries).1.mapError .store ∧
      (w.update name timeout p.run).2.store.records.Indexed ∧
      (w.update name timeout p.run).2.store.path = none ∧
      (w.update name timeout p.run).2.lock name = .memory false := by
  rw [update_run p h (acquire_of_inMemory name timeout hlock)]
  generalize hw₁ : ({ w with disk := w.disk, locks := w.locks.insert name (.memory true) } :
    Workspace) = w₁
  have hstore : w₁.store = w.store := hw₁ ▸ rfl
  have hheld : (w₁.concluded p).2.lock name = .memory true := by
    rw [lock, (concluded_locks p w₁).1, ← lock, ← hw₁]
    exact lock_insert w name _ w.disk
  obtain ⟨hpath', hi, -, -⟩ := concluded_store p w₁ (hstore ▸ h)
  have hrel := release_store name (w₁.concluded p).2
  refine ⟨?_, ?_, ?_, ?_⟩
  · rw [concluded_of_inMemory p (hstore ▸ h) (hstore ▸ hpath), hstore]
  · rw [hrel]
    exact hi
  · rw [hrel, hpath', hstore]
    exact hpath
  · rw [release, hheld]
    exact lock_insert _ name _ _

/-! ## Bodies with another answer -/

section Answer

variable {β : Type} (f : α → β)

theorem flush_map (result : Except StoreError α) (w : Workspace) :
    flush (result.map f) w = ((flush result w).1.map f, (flush result w).2) := by
  rcases result with e | a
  · rfl
  · simp only [flush, Except.map]
    split
    · rcases onStore Store.persist { w with store := { w.store with deferred := false } }
        with ⟨e | _, w'⟩ <;> rfl
    · rfl

theorem settle_map (snapshot : List Tag) (result : Except StoreError α) (w : Workspace) :
    settle snapshot (result.map f) w =
      ((settle snapshot result w).1.map f, (settle snapshot result w).2) := by
  unfold settle
  rw [flush_map]
  rcases flush result w with ⟨e | a, w'⟩ <;> rfl

/-- An update does not depend on what its body answers when it goes well. -/
theorem update_map (name : String) (timeout : Nat)
    (body : Workspace → Except StoreError α × Workspace) (w : Workspace) :
    w.update name timeout (fun w => ((body w).1.map f, (body w).2)) =
      ((w.update name timeout body).1.map f, (w.update name timeout body).2) := by
  simp only [update, guarded]
  rcases w.acquire name timeout with ⟨e | _, w₁⟩
  · rfl
  · simp only [transact, settle_map]
    rcases settle w₁.reload.store.tags (body w₁.reload.deferWrites).1
      (body w₁.reload.deferWrites).2 with ⟨e | a, w₂⟩ <;>
      rcases w₂.release name with ⟨e' | _, w₃⟩ <;> rfl

end Answer

end Workspace

end SpecLinkage
