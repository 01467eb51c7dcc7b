import SpecLinkage.Proofs.Lock.Failure
import SpecLinkage.Proofs.Store.Update
import SpecLinkage.Proofs.Store.Writing

/-! # Updates are atomic

An update does all of a program or nothing, and nobody can tell from the outcome that it has
written only once.

* `StoreProgram.run_direct`: where the store can be written, a program that writes after every
  change goes as planned, too.
* `Workspace.Atomic` compares the workspaces after the lock was taken and before it is given back.
* `Workspace.update_atomic`: every update is atomic, leaves no file but that of its lock behind if
  it fails, and ends without the lock and with a store that writes at once. -/

namespace SpecLinkage

variable {α : Type}

/-! ## Direct runs -/

/-- A program none of whose changes is made leaves the records. -/
theorem StoreProgram.plan_of_unmade (p : StoreProgram α) {r : Records} (h : (p.plan r).2.2 = 0) :
    (p.plan r).2.1 = r := by
  induction p generalizing r with
  | finish result => rfl
  | look next ih => exact ih _ h
  | change c next ih =>
    rw [plan] at h ⊢
    cases hc : c.isMade r with
    | true => simp [hc] at h
    | false =>
      rw [StoreChange.apply_of_not_isMade hc] at h ⊢
      exact ih _ (Nat.eq_zero_of_add_eq_zero_right h)

/-- Outside of an update, in a store that can be written, a program goes as planned.  If a change
is made then in the end the file has the records, and if none is made then no file changes. -/
theorem StoreProgram.run_direct (p : StoreProgram α) {w : Workspace}
    (hd : w.store.deferred = false) (hi : w.store.records.Indexed)
    (hw : (p.plan w.store.records).2.2 = 0 ∨ ∃ t, w.store.write w.disk.tree = (.ok (), t)) :
    ∃ t, p.run w = ((p.plan w.store.records).1,
        { w with
          store := { w.store with records := (p.plan w.store.records).2.1 }
          disk := { w.disk with tree := t } }) ∧
      ((p.plan w.store.records).2.2 = 0 → t = w.disk.tree) ∧
      ((p.plan w.store.records).2.2 ≠ 0 →
        Store.Saved w.store.path (p.plan w.store.records).2.1 w.disk.tree t) := by
  induction p generalizing w with
  | finish result => exact ⟨w.disk.tree, rfl, fun _ => rfl, fun h => absurd rfl h⟩
  | look next ih => exact ih _ hd hi hw
  | change c next ih =>
    rw [run]
    simp only [plan] at hw ⊢
    by_cases hc : c.isMade w.store.records = true
    · have hw : ∃ t, w.store.write w.disk.tree = (.ok (), t) := by
        refine hw.resolve_left fun h => ?_
        rw [if_pos hc] at h
        exact absurd h (Nat.succ_ne_zero _)
      obtain ⟨t, hwt⟩ := hw
      obtain ⟨t₁, hw₁⟩ := Store.write_other (c.apply w.store.records).2 hwt
      have hsaved : Store.Saved w.store.path (c.apply w.store.records).2 w.disk.tree t₁ :=
        Store.write_saved hw₁
      have hcall : w.onStore c.call = (.ok (c.apply w.store.records).1, { w with
          store := { w.store with records := (c.apply w.store.records).2 }
          disk := { w.disk with tree := t₁ } }) := by
        rw [Workspace.onStore, c.call_eq, if_pos hc, Store.commit_direct _ _ hd hi, hw₁]
        rfl
      have hagain := Store.write_again (c.apply w.store.records).2 hw₁
      obtain ⟨t₂, hrun, hsame, hwritten⟩ := ih (.ok (c.apply w.store.records).1) (w := { w with
          store := { w.store with records := (c.apply w.store.records).2 }
          disk := { w.disk with tree := t₁ } }) hd (c.apply_eq_onMap hi).1
        (.inr hagain)
      rw [hcall, if_pos hc]
      refine ⟨t₂, hrun, fun h => absurd h (Nat.succ_ne_zero _), fun _ => ?_⟩
      -- the last write counts: either it was this one, or there is one among the rest
      by_cases hmade : ((next (.ok (c.apply w.store.records).1)).plan
          (c.apply w.store.records).2).2.2 = 0
      · rw [plan_of_unmade _ hmade, hsame hmade]
        exact hsaved
      · exact hsaved.trans (hwritten hmade)
    · have hcall : w.onStore c.call = (.ok 0, w) := by
        rw [Workspace.onStore, c.call_eq, if_neg hc]
        rfl
      rw [if_neg hc] at hw ⊢
      rw [StoreChange.apply_of_not_isMade (Bool.eq_false_iff.2 hc)] at hw ⊢
      rw [hcall]
      exact ih (.ok 0) hd hi hw

/-! ## Updates -/

namespace Workspace

/-- What a program has done between taking a lock, at `w₁`, and giving it back, at `w₂`: all of it
or nothing. -/
structure Atomic (p : StoreProgram α) (w₁ w₂ : Workspace) (result : Except StoreError α) :
    Prop where
  /-- A program that failed, or that could not be written, leaves the store as it was loaded and
  all files as they were. -/
  failed : ∀ e, result = .error e → w₂.store = w₁.reopened.store ∧
    ∀ l, w₂.disk.tree.bytesAt? l = w₁.disk.tree.bytesAt? l
  /-- A program that went well leaves what it leaves when it writes after every change. -/
  succeeded : ∀ a, result = .ok a → (p.run w₁.reopened).1 = .ok a ∧
    (p.run w₁.reopened).2.store = w₂.store ∧
    (∀ l, (p.run w₁.reopened).2.disk.tree.bytesAt? l = w₂.disk.tree.bytesAt? l) ∧
    ∀ path, w₂.store.path = some path →
      Store.load (p.run w₁.reopened).2.disk.tree path = Store.load w₂.disk.tree path
  /-- If a change was made then it has written once, and otherwise it has not written. -/
  written : ∀ a, result = .ok a →
    match w₂.store.path, (p.plan w₁.reopened.store.records).2.2 with
    | some path, _ + 1 =>
      Store.writeAll w₁.disk.tree path (Store.textOf w₂.store.records) = (.ok (), w₂.disk.tree)
    | _, _ => w₂.disk.tree = w₁.disk.tree

/-- Writing the records at once is one write, if there is a file. -/
theorem written_of_write_ok {s : Store} {t t' : FileTree} (n : Nat)
    (h : s.write t = (.ok (), t')) :
    match s.path, n + 1 with
    | some path, _ + 1 => Store.writeAll t path (Store.textOf s.records) = (.ok (), t')
    | _, _ => t' = t := by
  have hw := Store.write_ok_iff.1 h
  rcases hp : s.path with _ | path <;> rw [hp] at hw
  · exact hw
  · exact hw.2

theorem load_eq_of_saved {path : String} {r : Records} {t t' t'' : FileTree}
    (h : Store.Saved (some path) r t t') (h' : Store.Saved (some path) r t t'') :
    Store.load t' path = Store.load t'' path := by
  rw [Store.load, Store.load, h.2.readText, h'.2.readText]

theorem atomic_concluded (p : StoreProgram α) {w : Workspace} (h : w.store.records.Indexed) :
    Atomic p w (w.concluded p).2 (w.concluded p).1 := by
  have hi := reopened_indexed h
  have hdirect := p.run_direct (w := w.reopened) rfl hi
  unfold concluded
  rcases hplan : p.plan w.reopened.store.records with ⟨e | a, r, _ | n⟩ <;> rw [hplan] at hdirect
  · exact ⟨fun _ _ => ⟨rfl, fun _ => rfl⟩, by rintro _ ⟨⟩, by rintro _ ⟨⟩⟩
  · exact ⟨fun _ _ => ⟨rfl, fun _ => rfl⟩, by rintro _ ⟨⟩, by rintro _ ⟨⟩⟩
  · obtain ⟨t, hrun, hsame, -⟩ := hdirect (.inl rfl)
    obtain rfl := hsame rfl
    refine ⟨by rintro _ ⟨⟩, ?_, ?_⟩
    · rintro b ⟨⟩
      rw [hrun]
      exact ⟨rfl, rfl, fun _ => rfl, fun _ _ => rfl⟩
    · rintro b ⟨⟩
      rw [hplan]
      simp only
      split
      · next h => cases h
      · rfl
  · simp only
    rcases hw : Store.write { w.reopened.store with records := r } w.disk.tree with ⟨e | _, t⟩
    · refine ⟨fun _ _ => ⟨rfl, fun l => ?_⟩, by rintro _ ⟨⟩, by rintro _ ⟨⟩⟩
      exact (Store.write_error (S := fun _ => False) hw).bytes l id
    · obtain ⟨t', hw'⟩ := Store.write_other w.reopened.store.records hw
      obtain ⟨t'', hrun, -, hwritten⟩ := hdirect (.inr ⟨t', hw'⟩)
      have hdone := hwritten (Nat.succ_ne_zero n)
      have hsaved : Store.Saved w.reopened.store.path r w.disk.tree t := Store.write_saved hw
      refine ⟨by rintro _ ⟨⟩, ?_, ?_⟩
      · rintro b ⟨⟩
        rw [hrun]
        refine ⟨rfl, rfl, hdone.bytesAt? hsaved, fun path hp => ?_⟩
        change w.reopened.store.path = some path at hp
        rw [hp] at hdone hsaved
        exact load_eq_of_saved hdone hsaved
      · rintro b ⟨⟩
        rw [hplan]
        exact written_of_write_ok n hw

/-- How an update ends that has taken its lock: the lock is free, and the store writes at once. -/
structure Ended (lock : String) (w : Workspace) : Prop where
  free : (w.lock lock).isHeld = false
  direct : w.store.deferred = false
  clean : w.store.dirty = false
  /-- A later change that goes well is in the file. -/
  writes : ∀ (c : StoreChange) n, c.isMade w.store.records = true →
    (w.onStore c.call).1 = .ok n →
    Store.Saved w.store.path (w.onStore c.call).2.store.records w.disk.tree
      (w.onStore c.call).2.disk.tree

/-- A direct change that goes well is in the file. -/
theorem onStore_saved {w : Workspace} {c : StoreChange} {n : Nat}
    (hd : w.store.deferred = false) (hi : w.store.records.Indexed)
    (hc : c.isMade w.store.records = true) (h : (w.onStore c.call).1 = .ok n) :
    Store.Saved w.store.path (w.onStore c.call).2.store.records w.disk.tree
      (w.onStore c.call).2.disk.tree := by
  have hcall := c.call_eq w.store w.disk.tree
  rw [if_pos hc, Store.commit_direct _ _ hd hi] at hcall
  rw [onStore, keepStore, hcall] at h ⊢
  rcases hw : Store.write { w.store with records := (c.apply w.store.records).2 } w.disk.tree
    with ⟨e | _, t⟩ <;> rw [hw] at h
  · cases h
  · exact Store.write_saved hw

theorem concluded_sameBeyond (p : StoreProgram α) (w : Workspace) :
    ∃ S, FileTree.SameBeyond S w.disk.tree (w.concluded p).2.disk.tree := by
  unfold concluded
  rcases p.plan w.reopened.store.records with ⟨e | a, r, _ | n⟩
  · exact ⟨fun _ => False, .refl _ _⟩
  · exact ⟨fun _ => False, .refl _ _⟩
  · exact ⟨fun _ => False, .refl _ _⟩
  · simp only
    rcases hw : Store.write { w.reopened.store with records := r } w.disk.tree with ⟨e | _, t⟩
    · exact ⟨fun _ => False, Store.write_error hw⟩
    · exact (Store.write_saved hw).sameBeyond

theorem tree_keepLock (w : Workspace) (name : String) (o : Except LockError Lock × Disk) :
    (w.keepLock name o).2.disk = o.2 := by
  rcases o with ⟨e | l, d⟩ <;> rfl

theorem acquire_footprint (name : String) (timeout : Nat) (w : Workspace) :
    FileTree.SameBeyond (w.lock name).IsAt w.disk.tree (w.acquire name timeout).2.disk.tree ∧
      ((w.acquire name timeout).1 = .ok () →
        ((w.acquire name timeout).2.lock name).IsAt = (w.lock name).IsAt ∧
          ((w.acquire name timeout).2.lock name).HoldsOwn
            (w.acquire name timeout).2.disk.tree) := by
  obtain ⟨hsame, hown⟩ := Lock.acquire_sameBeyond w.me timeout (w.lock name) w.disk
  rw [acquire]
  rcases ha : (w.lock name).acquire w.me timeout w.disk with ⟨e | l, d⟩ <;>
    rw [ha] at hsame hown <;> rw [keepLock]
  · exact ⟨hsame, by rintro ⟨⟩⟩
  · refine ⟨hsame, fun _ => ?_⟩
    rw [lock_insert]
    exact hown l rfl

/-- Giving back the lock of an update touches the place of the lock. -/
theorem release_footprint (p : StoreProgram α) {name : String} {timeout : Nat} {w w₁ : Workspace}
    (hacq : w.acquire name timeout = (.ok (), w₁)) :
    FileTree.SameBeyond (w.lock name).IsAt (w₁.concluded p).2.disk.tree
      ((w₁.concluded p).2.release name).2.disk.tree := by
  have hown := (acquire_footprint name timeout w).2
  rw [hacq] at hown
  obtain ⟨hat, hown⟩ := hown rfl
  obtain ⟨S, hfiles⟩ := concluded_sameBeyond p w₁
  have hlock : (w₁.concluded p).2.lock name = w₁.lock name := by
    rw [lock, (concluded_locks p w₁).1, lock]
  rw [← hat, ← hlock, release, tree_keepLock]
  exact Lock.release_sameBeyond (hlock.symm ▸ hown.of_sameBeyond hfiles)

/-- Every update is all or nothing.  Taking the lock leaves the store, and no file changes but that
of the lock; if the lock cannot be taken, that is all, and not even the file of the lock changes.
Otherwise the program is done at once, giving the lock back leaves the store, too, and then the
lock is free and the store writes at once again. -/
theorem update_atomic (p : StoreProgram α) (name : String) (timeout : Nat) (w : Workspace)
    (h : w.store.records.isConsistent = true) :
    let w₁ := (w.acquire name timeout).2
    w₁.store = w.store ∧
      FileTree.SameBeyond (w.lock name).IsAt w.disk.tree w₁.disk.tree ∧
      match (w.acquire name timeout).1 with
      | .error e => w.update name timeout p.run = (.error (.lock e), w₁) ∧
        (w.disk.OwnersNumbered → ∀ l, w₁.disk.tree.bytesAt? l = w.disk.tree.bytesAt? l)
      | .ok () => ∃ w₂ result,
        w.update name timeout p.run = (result.mapError .store, (w₂.release name).2) ∧
          Atomic p w₁ w₂ result ∧
          (w₂.release name).2.store = w₂.store ∧
          FileTree.SameBeyond (w.lock name).IsAt w₂.disk.tree (w₂.release name).2.disk.tree ∧
          Ended name (w₂.release name).2 := by
  have hi := (Records.isConsistent_iff _).1 h
  have hstore := acquire_store name timeout w
  have hsame := (acquire_footprint name timeout w).1
  refine ⟨hstore, hsame, ?_⟩
  rcases hacq : w.acquire name timeout with ⟨e | _, w₁⟩ <;> rw [hacq] at hstore hsame
  · refine ⟨by simp only [update, guarded, hacq], fun hnum l => ?_⟩
    rw [acquire] at hacq
    rcases ha : (w.lock name).acquire w.me timeout w.disk with ⟨e' | l', d⟩ <;>
      rw [ha, keepLock] at hacq <;> cases hacq
    exact (Lock.acquire_error_untouched hnum ha).same.bytes l id
  · have hi₁ : w₁.store.records.Indexed := hstore ▸ hi
    obtain ⟨-, hi₂, hdirect, hclean⟩ := concluded_store p w₁ hi₁
    have hlock : (w₁.concluded p).2.lock name = w₁.lock name := by
      rw [lock, (concluded_locks p w₁).1, lock]
    have hfree := release_of_isHeld (by rw [hlock]; exact isHeld_of_acquire hacq)
    have hrel := release_store name (w₁.concluded p).2
    refine ⟨_, _, update_run p hi hacq, atomic_concluded p hi₁, hrel, release_footprint p hacq,
      hfree.2, ?_, ?_, ?_⟩
    · rw [hrel]
      exact hdirect
    · rw [hrel]
      exact hclean
    · intro c n hc hn
      exact onStore_saved (hrel.symm ▸ hdirect) (hrel.symm ▸ hi₂) hc hn

/-- A program that records a tag and then fails leaves no tag behind. -/
theorem tags_of_failed_update :
    let w : Workspace := { me := ⟨1, "host"⟩ }
    let p : StoreProgram Unit :=
      .change (.add ⟨⟨"A", 1, by decide⟩, .impl, .task, "a.rs", 1, none⟩) fun _ =>
        .finish (.error (.serialization "no"))
    w.store.records.isConsistent = true ∧ (w.update "lock" 0 p.run).2.store.tags = [] := by
  intro w p
  have hw : w.store.records.isConsistent = true := rfl
  obtain ⟨-, -, w₂, result, hup, hatomic, hstore, -, -⟩ := update_atomic p "lock" 0 w hw
  have hresult : result = .error (.serialization "no") := by
    have h : (w.update "lock" 0 p.run).1 = .error (.store (.serialization "no")) := rfl
    rw [hup] at h
    rcases result with e | a <;> cases h
    rfl
  refine ⟨hw, ?_⟩
  rw [hup]
  show (w₂.release "lock").2.store.tags = []
  rw [hstore, (hatomic.failed _ hresult).1]
  rfl

end Workspace

end SpecLinkage
